import DeipChain.Proposals.Database

/-!
# What an execution goes through

An operation leaves all of the database but the object store alone, unless it is an update
that executes a proposal. What holds of every execution is shown for `push_proposal` with any
inner one that has the property, and by induction on the depth for all.
-/
namespace DeipChain.Proposals

open Result Outcome

variable {Payload Rest : Type} {evaluators : Evaluators Payload Rest} {push : Push Payload Rest}

/-- What every execution has if it has it whenever the inner ones do. -/
theorem pushProposal_induction
    (property : Database Payload Rest → Proposal Payload → Result Payload Rest → Prop)
    (fails : ∀ database proposal,
      property database proposal (database.failProposal database proposal .nestingDepth))
    (executes : ∀ push : Push Payload Rest,
      (∀ database proposal, property database proposal (push database proposal)) →
      ∀ database proposal,
        property database proposal (Database.executeProposal evaluators push database proposal))
    (depth : Nat) (database : Database Payload Rest) (proposal : Proposal Payload) :
    property database proposal (Database.pushProposal evaluators depth database proposal) := by
  induction depth generalizing database proposal with
  | zero => exact fails database proposal
  | succ depth hypothesis => exact executes _ hypothesis database proposal

/-- The proposal that an operation executes. -/
def Store.triggers (evaluators : Evaluators Payload Rest) (store : Store Payload Rest) :
    Operation Payload → Option (Proposal Payload)
  | .updateProposal update =>
    match store.checkUpdate update with
    | .error _ => none
    | .ok proposal =>
      if proposal.reviewPeriodTime.isSome then none
      else if evaluators.isAuthorizedToExecute store.rest (proposal.updated update) then
        some (proposal.updated update)
      else none
  | _ => none

section Operations

variable {update : ProposalUpdate} {behind : List (Operation Payload)}
  {operation : Operation Payload} {current : Proposal Payload}

theorem updateProposal_triggers (database : Database Payload Rest)
    (triggers : database.store.triggers evaluators (.updateProposal update) = some current) :
    ∃ proposal, database.store.checkUpdate update = .ok proposal ∧
      current = proposal.updated update ∧ proposal.reviewPeriodTime = none ∧
      evaluators.isAuthorizedToExecute database.store.rest current = true ∧
      database.updateProposal evaluators push update =
        Database.swallow proposal.id (push { database with
          store := database.store.modifyProposal proposal.id (Proposal.approve update) } current) := by
  simp only [Store.triggers] at triggers
  split at triggers
  · cases triggers
  · rename_i proposal checked
    split at triggers
    · cases triggers
    · rename_i unreviewed
      split at triggers
      · rename_i authorized
        cases triggers
        refine ⟨proposal, checked, rfl, by simpa using unreviewed, authorized, ?_⟩
        simp only [Database.updateProposal, checked, unreviewed, authorized, Bool.false_eq_true,
          if_false, if_true]
      · cases triggers

theorem updateProposal_settles (database : Database Payload Rest)
    (settles : database.store.triggers evaluators (.updateProposal update) = none) :
    (∃ error, database.updateProposal evaluators push update = .thrown error database) ∨
      ∃ proposal, database.store.checkUpdate update = .ok proposal ∧
        database.updateProposal evaluators push update = .returned { database with
          store := database.store.modifyProposal proposal.id (Proposal.approve update) } := by
  cases checked : database.store.checkUpdate update with
  | error error => exact .inl ⟨error, by simp only [Database.updateProposal, checked]⟩
  | ok proposal =>
    right
    refine ⟨proposal, rfl, ?_⟩
    simp only [Store.triggers, checked] at settles
    simp only [Database.updateProposal, checked]
    by_cases reviewed : proposal.reviewPeriodTime.isSome = true
    · rw [if_pos reviewed]
    · rw [if_neg reviewed] at settles
      rw [if_neg reviewed]
      by_cases authorized :
          evaluators.isAuthorizedToExecute database.store.rest (proposal.updated update) = true
      · rw [if_pos authorized] at settles
        cases settles
      · rw [if_neg authorized]

variable (push behind) in
/-- An update that executes a proposal runs `push_proposal` on the store with the update. -/
theorem applyOperation_triggers {database : Database Payload Rest}
    (triggers : database.store.triggers evaluators operation = some current) :
    ∃ update proposal, operation = .updateProposal update ∧
      database.store.checkUpdate update = .ok proposal ∧
      current = proposal.updated update ∧ proposal.reviewPeriodTime = none ∧
      evaluators.isAuthorizedToExecute database.store.rest current = true ∧
      database.applyOperation evaluators push behind operation =
        Database.swallow proposal.id (push { database.note behind operation with
          store := database.store.modifyProposal proposal.id (Proposal.approve update) } current) := by
  cases operation with
  | updateProposal update =>
    obtain ⟨proposal, checked, same, unreviewed, authorized, result⟩ :=
      updateProposal_triggers (database.note behind (.updateProposal update)) triggers
    exact ⟨update, proposal, rfl, checked, same, unreviewed, authorized, result⟩
  | createProposal => cases triggers
  | deleteProposal => cases triggers
  | createEntity => cases triggers
  | other => cases triggers

variable (push behind) in
/-- The other operations change the object store only. -/
theorem applyOperation_settles {database : Database Payload Rest}
    (settles : database.store.triggers evaluators operation = none) :
    (∃ error, database.applyOperation evaluators push behind operation =
        .thrown error (database.note behind operation)) ∨
      ∃ store, database.applyOperation evaluators push behind operation =
          .returned { database.note behind operation with store := store } ∨
        database.applyOperation evaluators push behind operation =
          .undefined { database.note behind operation with store := store } := by
  have settle : ∀ (noted : Database Payload Rest) result, (∃ error, noted.settle result =
      .thrown error noted) ∨ ∃ store, noted.settle result = .returned { noted with store := store } ∨
        noted.settle result = .undefined { noted with store := store } := by
    intro noted result
    cases result with
    | error error => exact Or.inl ⟨error, rfl⟩
    | ok store => exact Or.inr ⟨store, Or.inl rfl⟩
  cases operation with
  | createProposal => exact settle _ _
  | createEntity => exact settle _ _
  | other => exact settle _ _
  | deleteProposal externalId account authority =>
    simp only [Database.applyOperation, Database.deleteProposal]
    split
    · exact Or.inl ⟨_, rfl⟩
    · split
      · exact Or.inr ⟨_, Or.inr rfl⟩
      · exact Or.inr ⟨_, Or.inl rfl⟩
  | updateProposal update =>
    rcases updateProposal_settles (database.note behind (.updateProposal update))
      settles with thrown | ⟨proposal, -, returned⟩
    · exact Or.inl thrown
    · exact Or.inr ⟨_, Or.inl returned⟩

/-- What an operation that executes nothing makes of the object store. -/
inductive Settled (evaluators : Evaluators Payload Rest) (database : Database Payload Rest) :
    Operation Payload → Store Payload Rest → Prop where
  | created {externalId creator : String} {proposedOps : List (Operation Payload)}
      {expirationTime : Nat} {reviewPeriodSeconds : Option Nat} {store : Store Payload Rest}
      (ran : database.createProposal evaluators externalId creator proposedOps expirationTime
        reviewPeriodSeconds = .ok store) :
      Settled evaluators database
        (.createProposal externalId creator proposedOps expirationTime reviewPeriodSeconds) store
  | updated {update : ProposalUpdate} {proposal : Proposal Payload}
      (checked : database.store.checkUpdate update = .ok proposal) :
      Settled evaluators database (.updateProposal update)
        (database.store.modifyProposal proposal.id (Proposal.approve update))
  | deleted {externalId account : String} {authority : Nat} {proposal : Proposal Payload}
      (checked : database.store.checkDelete externalId account authority = .ok proposal)
      (idle : proposal.id ∉ database.executing.map Proposal.id) :
      Settled evaluators database (.deleteProposal externalId account authority)
        (database.store.removeProposal proposal.id)
  | entity {kind : EntityKind} {externalId : String} {payload : Payload} {store : Store Payload Rest}
      (ran : database.createEntity evaluators kind externalId payload = .ok store) :
      Settled evaluators database (.createEntity kind externalId payload) store
  | other {payload : Payload} (rest : Rest) :
      Settled evaluators database (.other payload) { database.store with rest := rest }

theorem applyOperation_settled {database next : Database Payload Rest}
    (settles : database.store.triggers evaluators operation = none)
    (ran : database.applyOperation evaluators push behind operation = .returned next) :
    ∃ store, next = { database.note behind operation with store := store } ∧
      Settled evaluators database operation store := by
  have settle : ∀ (noted : Database Payload Rest) result, noted.settle result = .returned next →
      ∃ store, result = .ok store ∧ next = { noted with store := store } := by
    intro noted result ended
    cases result with
    | error error => cases ended
    | ok store =>
      cases ended
      exact ⟨store, rfl, rfl⟩
  cases operation with
  | createProposal =>
    obtain ⟨store, made, same⟩ := settle _ _ ran
    exact ⟨store, same, .created made⟩
  | createEntity =>
    obtain ⟨store, made, same⟩ := settle _ _ ran
    exact ⟨store, same, .entity made⟩
  | other payload =>
    obtain ⟨store, made, same⟩ := settle _ _ ran
    rw [Result.bind_ok_iff] at made
    obtain ⟨rest, -, made⟩ := made
    cases made
    exact ⟨_, same, .other rest⟩
  | deleteProposal externalId account authority =>
    simp only [Database.applyOperation, Database.deleteProposal] at ran
    split at ran
    · cases ran
    · rename_i proposal checked
      split at ran
      · cases ran
      · rename_i idle
        cases ran
        exact ⟨_, rfl, .deleted checked idle⟩
  | updateProposal update =>
    rcases updateProposal_settles (database.note behind (.updateProposal update)) settles with
      ⟨error, thrown⟩ | ⟨proposal, checked, returned⟩
    · cases thrown.symm.trans ran
    · cases returned.symm.trans ran
      exact ⟨_, rfl, .updated checked⟩

end Operations

/-!
## The record and the nesting
-/

/-- A call extends the record, and leaves the proposals that are being executed if it ends
by returning or throwing. -/
structure Extends (before : Database Payload Rest) (outcome : Result Payload Rest) : Prop where
  trace : before.trace <+: outcome.state.trace
  executing : outcome.Ends (fun after => after.executing = before.executing)

section Extends

variable {before : Database Payload Rest} {outcome : Result Payload Rest}

theorem Extends.refl (database : Database Payload Rest) : Extends database (.returned database) :=
  ⟨List.prefix_rfl, rfl⟩

theorem Extends.note {behind : List (Operation Payload)} {operation : Operation Payload}
    (extended : Extends (before.note behind operation) outcome) : Extends before outcome :=
  ⟨(List.prefix_append _ _).trans extended.trace, extended.executing⟩

theorem Extends.andThen {next : Database Payload Rest → Result Payload Rest}
    (first : Extends before outcome) (second : ∀ state, Extends state (next state)) :
    Extends before (outcome.andThen next) := by
  cases outcome with
  | returned state =>
    refine ⟨first.trace.trans (second state).trace, (second state).executing.mono ?_⟩
    exact fun after later => later.trans first.executing
  | thrown => exact first
  | undefined => exact first
  | unfinished => exact first

/-- The record and the nesting are all that matters of the database before. -/
theorem Extends.alter {other : Database Payload Rest} (extended : Extends other outcome)
    (trace : other.trace = before.trace) (executing : other.executing = before.executing) :
    Extends before outcome :=
  ⟨trace ▸ extended.trace, executing ▸ extended.executing⟩

/-- Loops extend the record. -/
theorem each_extends {A : Type} {round : List A → Database Payload Rest → A → Result Payload Rest}
    (each_ : ∀ behind database element, Extends database (round behind database element))
    (elements : List A) (database : Database Payload Rest) :
    Extends database (each round database elements) := by
  induction elements generalizing database with
  | nil => exact Extends.refl database
  | cons element behind hypothesis =>
    exact (each_ behind database element).andThen (fun next => hypothesis next)

theorem applyOperation_extends (inner : ∀ database proposal, Extends database (push database proposal))
    (behind : List (Operation Payload)) (database : Database Payload Rest)
    (operation : Operation Payload) : Extends (database.note behind operation)
      (database.applyOperation evaluators push behind operation) := by
  cases triggers : database.store.triggers evaluators operation with
  | none =>
    rcases applyOperation_settles _ _ triggers with ⟨error, ended⟩ | ⟨store, ended | ended⟩
    · rw [ended]
      exact ⟨List.prefix_rfl, rfl⟩
    · rw [ended]
      exact ⟨List.prefix_rfl, rfl⟩
    · rw [ended]
      exact ⟨List.prefix_rfl, trivial⟩
  | some current =>
    obtain ⟨update, proposal, rfl, -, -, -, -, ended⟩ := applyOperation_triggers _ _ triggers
    rw [ended]
    have ran := inner { database.note behind (.updateProposal update) with
      store := database.store.modifyProposal proposal.id (Proposal.approve update) } current
    generalize push _ current = outcome at ran
    cases outcome with
    | returned done => exact ⟨ran.trace, ran.executing⟩
    | thrown error failed => exact ⟨ran.trace, ran.executing⟩
    | undefined failed => exact ⟨ran.trace, trivial⟩
    | unfinished failed => exact ⟨ran.trace, trivial⟩

theorem applyOperations_extends (evaluators : Evaluators Payload Rest)
    (inner : ∀ database proposal, Extends database (push database proposal))
    (operations : List (Operation Payload)) (database : Database Payload Rest) :
    Extends database (database.applyOperations evaluators push operations) :=
  each_extends (fun behind database operation =>
    (applyOperation_extends inner behind database operation).note) operations database

theorem failProposal_extends {failed : Database Payload Rest} (proposal : Proposal Payload)
    (error : ProposalError) (extended : before.trace <+: failed.trace) :
    Extends before (before.failProposal failed proposal error) := by
  dsimp only [Database.failProposal]
  split
  · exact ⟨extended, trivial⟩
  · exact ⟨extended, rfl⟩

theorem executeProposal_extends
    (inner : ∀ database proposal, Extends database (push database proposal))
    (database : Database Payload Rest) (proposal : Proposal Payload) :
    Extends database (database.executeProposal evaluators push proposal) := by
  rw [Database.executeProposal]
  split
  · have ran := applyOperations_extends evaluators inner
      proposal.proposedTransaction.operations (database.enter proposal)
    have extended := (List.prefix_append _ _).trans ran.trace
    dsimp only
    split
    · rename_i done result
      rw [result] at extended
      dsimp only [Database.finishProposal]
      split
      · exact ⟨extended, trivial⟩
      · exact ⟨extended, rfl⟩
    · rename_i error failed result
      rw [result] at extended
      exact failProposal_extends proposal error extended
    · rename_i failed result
      rw [result] at extended
      exact ⟨extended, trivial⟩
    · rename_i failed result
      rw [result] at extended
      exact ⟨extended, trivial⟩
  · exact failProposal_extends proposal .nestingDepth List.prefix_rfl

theorem pushProposal_extends (evaluators : Evaluators Payload Rest) (depth : Nat)
    (database : Database Payload Rest) (proposal : Proposal Payload) :
    Extends database (Database.pushProposal evaluators depth database proposal) := by
  refine pushProposal_induction (fun database _ outcome => Extends database outcome) ?_ ?_ depth
    database proposal
  · exact fun database proposal => failProposal_extends proposal .nestingDepth List.prefix_rfl
  · exact fun push inner => executeProposal_extends inner

end Extends

/-!
## Invariants of executions
-/

/-- A property of the database that the parts of an execution keep, and what a proposal needs
to be executed. A failed execution puts the object store back, and one
that went through takes the proposal out of it. -/
structure Carried (evaluators : Evaluators Payload Rest) (holds : Database Payload Rest → Prop)
    (fits : Database Payload Rest → Proposal Payload → Prop) : Prop where
  note : ∀ behind operation database, holds database → holds (database.note behind operation)
  settle : ∀ behind operation database store, holds database →
    Settled evaluators database operation store →
      holds { database.note behind operation with store := store }
  update : ∀ behind update proposal database, holds database →
    database.store.checkUpdate update = .ok proposal → proposal.reviewPeriodTime = none →
    database.store.triggers evaluators (.updateProposal update) = some (proposal.updated update) →
      holds { database.note behind (.updateProposal update) with
        store := database.store.modifyProposal proposal.id (Proposal.approve update) } ∧
      fits { database.note behind (.updateProposal update) with
        store := database.store.modifyProposal proposal.id (Proposal.approve update) }
        (proposal.updated update)
  swallow : ∀ id error database, holds database → holds { database with
    currentProposedTrx := none
    store := database.store.modifyProposal id (Proposal.fail error) }
  enter : ∀ proposal database, holds database → fits database proposal →
    holds (database.enter proposal)
  fail : ∀ proposal error database failed, holds database → fits database proposal → holds failed →
    holds { failed with
      store := database.store.modifyProposal proposal.id (Proposal.fail error)
      currentProposedTrx := none
      executing := database.executing }
  finish : ∀ proposal database done, holds database → fits database proposal → holds done →
    done.executing = proposal :: database.executing →
    proposal.id ∉ database.executing.map Proposal.id →
      holds { done with
        store := { done.store.removeProposal proposal.id with
          executed := done.store.executed ++ [proposal.id] }
        currentProposedTrx := none
        executing := database.executing }

section Carried

variable {holds : Database Payload Rest → Prop} {fits : Database Payload Rest → Proposal Payload → Prop}

theorem Carried.failProposal (carried : Carried evaluators holds fits)
    {database failed : Database Payload Rest} {proposal : Proposal Payload} (error : ProposalError)
    (held : holds database) (fit : fits database proposal) (still : holds failed) :
    (database.failProposal failed proposal error).Ends holds := by
  dsimp only [Database.failProposal]
  split
  · trivial
  · exact carried.fail proposal error database failed held fit still

theorem Carried.swallowed (carried : Carried evaluators holds fits) {id : Nat}
    {outcome : Result Payload Rest} (ends : outcome.Ends holds) :
    (Database.swallow id outcome).Ends holds := by
  cases outcome with
  | returned done => exact ends
  | thrown error failed => exact carried.swallow id error failed ends
  | undefined => trivial
  | unfinished => trivial

theorem Carried.operation (carried : Carried evaluators holds fits)
    (inner : ∀ database proposal, holds database → fits database proposal →
      (push database proposal).Ends holds)
    (behind : List (Operation Payload)) (operation : Operation Payload)
    {database : Database Payload Rest} (held : holds database) :
    (database.applyOperation evaluators push behind operation).Ends holds := by
  cases triggers : database.store.triggers evaluators operation with
  | some current =>
    obtain ⟨update, proposal, rfl, checked, rfl, unreviewed, -, ended⟩ :=
      applyOperation_triggers push behind triggers
    rw [ended]
    obtain ⟨updated, fit⟩ := carried.update behind update proposal database held checked unreviewed
      triggers
    exact carried.swallowed (inner _ _ updated fit)
  | none =>
    cases result : database.applyOperation evaluators push behind operation with
    | returned next =>
      obtain ⟨store, rfl, settled⟩ := applyOperation_settled triggers result
      exact carried.settle behind operation database store held settled
    | thrown error failed =>
      rcases applyOperation_settles push behind triggers with
        ⟨_, ended⟩ | ⟨_, ended | ended⟩
      · cases ended.symm.trans result
        exact carried.note behind operation database held
      · cases ended.symm.trans result
      · cases ended.symm.trans result
    | undefined => trivial
    | unfinished => trivial

theorem Carried.operations (carried : Carried evaluators holds fits)
    (inner : ∀ database proposal, holds database → fits database proposal →
      (push database proposal).Ends holds)
    (operations : List (Operation Payload)) {database : Database Payload Rest} (held : holds database) :
    (database.applyOperations evaluators push operations).Ends holds :=
  each_ends (fun behind operation _ still => carried.operation inner behind operation still) held

theorem Carried.executed (carried : Carried evaluators holds fits)
    (extended : ∀ database proposal, Extends database (push database proposal))
    (inner : ∀ database proposal, holds database → fits database proposal →
      (push database proposal).Ends holds)
    (database : Database Payload Rest) (proposal : Proposal Payload) (held : holds database)
    (fit : fits database proposal) :
    (Database.executeProposal evaluators push database proposal).Ends holds := by
  rw [Database.executeProposal]
  split
  · have ran := carried.operations inner proposal.proposedTransaction.operations
      (carried.enter proposal database held fit)
    have nested := (applyOperations_extends evaluators extended
      proposal.proposedTransaction.operations (database.enter proposal)).executing
    dsimp only
    split
    · rename_i done result
      rw [result] at ran nested
      dsimp only [Database.finishProposal]
      split
      · trivial
      · rename_i outside
        exact carried.finish proposal database done held fit ran nested outside
    · rename_i error failed result
      rw [result] at ran
      exact carried.failProposal error held fit ran
    · trivial
    · trivial
  · exact carried.failProposal .nestingDepth held fit held

/-- Every execution keeps what its parts keep. -/
theorem Carried.pushed (carried : Carried evaluators holds fits) (depth : Nat)
    (database : Database Payload Rest) (proposal : Proposal Payload) (held : holds database)
    (fit : fits database proposal) :
    (Database.pushProposal evaluators depth database proposal).Ends holds := by
  induction depth generalizing database proposal with
  | zero => exact carried.failProposal .nestingDepth held fit held
  | succ depth hypothesis =>
    exact carried.executed (pushProposal_extends evaluators depth) hypothesis database proposal held fit

end Carried

end DeipChain.Proposals
