import DeipChain.Proposals.Execution

/-!
# The current proposed transaction

`push_proposal` makes the transaction of its proposal the current one and takes it away when
it ends. The executions nest and the variable does not: after an inner execution there is no
current proposed transaction, whatever is left of the outer one. So an operation of a proposal
finds the transaction of its proposal exactly if none before it has executed another one.
-/
namespace DeipChain.Proposals

open Outcome

variable {Payload Rest : Type} {evaluators : Evaluators Payload Rest} {push : Push Payload Rest}

/-- An operation of a proposal is applied while its transaction is the current proposed one,
and its reference block is the one that is recorded; an operation of a transaction is applied while
there is none. -/
structure Situated (executing : List (Proposal Payload))
    (currentProposedTrx : Option (Transaction Payload)) (currentTrxReference : RefBlock) : Prop where
  own : currentProposedTrx = executing.head?.map Proposal.proposedTransaction
  recorded : ∀ proposal, executing.head? = some proposal →
    recordedReference currentProposedTrx currentTrxReference = proposal.proposedTransaction.reference

theorem situated_iff {executing : List (Proposal Payload)}
    {currentProposedTrx : Option (Transaction Payload)} {currentTrxReference : RefBlock} :
    Situated executing currentProposedTrx currentTrxReference ↔
      currentProposedTrx = executing.head?.map Proposal.proposedTransaction := by
  constructor
  · exact Situated.own
  · rintro rfl
    refine ⟨rfl, ?_⟩
    intro proposal first
    rw [first]
    rfl

/-- What is expected of a moment of the run. -/
def Event.InContext : Event Payload Rest → Prop
  | .operation _ _ _ executing currentProposedTrx currentTrxReference =>
    Situated executing currentProposedTrx currentTrxReference
  | .execution _ _ _ => True

/-- An operation of a proposal that executes another one is the last of its proposal. -/
def Event.Closing (evaluators : Evaluators Payload Rest) : Event Payload Rest → Prop
  | .operation op behind store executing _ _ =>
    executing ≠ [] → behind ≠ [] → store.triggers evaluators op = none
  | .execution _ _ _ => True

/-- The record of a part of the run is as expected exactly if it has closing executions only. -/
def Even (evaluators : Evaluators Payload Rest) (events : List (Event Payload Rest)) : Prop :=
  (∀ event ∈ events, event.InContext) ↔ ∀ event ∈ events, event.Closing evaluators

theorem Even.append {first second : List (Event Payload Rest)} (one : Even evaluators first)
    (other : Even evaluators second) : Even evaluators (first ++ second) := by
  rw [Even] at one other ⊢
  rw [List.forall_mem_append, List.forall_mem_append, one, other]

theorem Even.of_both {event : Event Payload Rest} (inContext : event.InContext)
    (closing : event.Closing evaluators) : Even evaluators [event] := by
  rw [Even, List.forall_mem_singleton, List.forall_mem_singleton]
  exact ⟨fun _ => closing, fun _ => inContext⟩

/-- A record in which both fail. -/
theorem Even.of_neither {events : List (Event Payload Rest)} {one other : Event Payload Rest}
    (listed : one ∈ events) (lost : ¬one.InContext) (among : other ∈ events)
    (open_ : ¬other.Closing evaluators) : Even evaluators events :=
  ⟨fun all => absurd (all one listed) lost, fun all => absurd (all other among) open_⟩

/-- A call after which as many proposals are being executed as before, and what it has
recorded. -/
structure Composed (evaluators : Evaluators Payload Rest) (before after : Database Payload Rest) :
    Prop where
  executing : after.executing = before.executing
  added : ∃ events, after.trace = before.trace ++ events ∧ Even evaluators events

/-- An execution leaves no current proposed transaction. -/
structure Contained (evaluators : Evaluators Payload Rest) (push : Push Payload Rest) : Prop where
  extended : ∀ database proposal, Extends database (push database proposal)
  composed : ∀ database proposal, (push database proposal).Ends
    (fun after => Composed evaluators database after ∧ after.currentProposedTrx = none)

/-- The database is where an operation is expected. -/
def Database.InContext (database : Database Payload Rest) : Prop :=
  database.currentProposedTrx = database.executing.head?.map Proposal.proposedTransaction

theorem Contained.swallow {database : Database Payload Rest} {id : Nat}
    {outcome : Result Payload Rest} (ends : outcome.Ends
      (fun after => Composed evaluators database after ∧ after.currentProposedTrx = none)) :
    (Database.swallow id outcome).Ends
      (fun after => Composed evaluators database after ∧ after.currentProposedTrx = none) := by
  cases outcome with
  | returned done => exact ends
  | thrown error failed => exact ⟨⟨ends.1.executing, ends.1.added⟩, rfl⟩
  | undefined => trivial
  | unfinished => trivial

theorem swallow_not_thrown {id : Nat} {outcome : Result Payload Rest} (error : ProposalError)
    (failed : Database Payload Rest) : Database.swallow id outcome ≠ .thrown error failed := by
  cases outcome <;> simp [Database.swallow]

/-- After an operation that executes a proposal there is no current proposed transaction. -/
theorem applyOperation_contained (inner : Contained evaluators push)
    (behind : List (Operation Payload)) {database : Database Payload Rest}
    {operation : Operation Payload} {current : Proposal Payload}
    (triggers : database.store.triggers evaluators operation = some current) :
    (database.applyOperation evaluators push behind operation).Ends (fun after =>
      Composed evaluators (database.note behind operation) after ∧
        after.currentProposedTrx = none) := by
  obtain ⟨update, proposal, -, -, -, -, -, ended⟩ := applyOperation_triggers _ _ triggers
  rw [ended]
  refine (Contained.swallow (inner.composed _ current)).mono ?_
  rintro after ⟨composed, none⟩
  exact ⟨⟨composed.executing, composed.added⟩, none⟩

/-- What is left of a proposal after it has executed another one finds no current proposed
transaction. -/
theorem applyOperations_lost (inner : Contained evaluators push)
    {behind : List (Operation Payload)} {database : Database Payload Rest}
    (inside : database.executing ≠ []) (none : database.currentProposedTrx = none)
    (more : behind ≠ []) :
    ∃ events, (database.applyOperations evaluators push behind).state.trace =
        database.trace ++ events ∧ ∃ event ∈ events, ¬event.InContext := by
  cases behind with
  | nil => exact absurd rfl more
  | cons operation rest =>
    have lost : ¬Event.InContext (database.event rest operation) := by
      intro situated
      obtain ⟨first, behind, found⟩ := List.exists_cons_of_ne_nil inside
      have own := situated.own
      rw [none, found] at own
      cases own
    obtain ⟨events, extended⟩ := ((applyOperation_extends inner.extended rest database
      operation).andThen (applyOperations_extends evaluators inner.extended rest)).trace
    refine ⟨database.event rest operation :: events, ?_, _, List.mem_cons_self, lost⟩
    exact extended.symm.trans (List.append_assoc _ _ _)

/-- The operations of a transaction, from where they are expected. -/
theorem applyOperations_composed (inner : Contained evaluators push)
    (operations : List (Operation Payload)) (database : Database Payload Rest)
    (inContext : database.InContext) :
    (database.applyOperations evaluators push operations).Ends (fun after =>
      Composed evaluators database after ∧
        (database.executing = [] → after.currentProposedTrx = none)) := by
  induction operations generalizing database with
  | nil =>
    refine ⟨⟨rfl, [], (List.append_nil _).symm, ?_⟩, ?_⟩
    · exact Iff.intro (fun _ _ member => absurd member List.not_mem_nil)
        (fun _ _ member => absurd member List.not_mem_nil)
    · intro outside
      rw [inContext, outside]
      rfl
  | cons operation behind hypothesis =>
    have here : Event.InContext (database.event behind operation) := situated_iff.mpr inContext
    have outside : database.executing = [] → database.currentProposedTrx = none := by
      intro none
      rw [inContext, none]
      rfl
    -- What is left runs from where it is expected, after events that are even.
    have continues : ∀ (next : Database Payload Rest) events, next.InContext →
        next.executing = database.executing → next.trace = database.trace ++ events →
        Even evaluators events → (next.applyOperations evaluators push behind).Ends (fun after =>
          Composed evaluators database after ∧
            (database.executing = [] → after.currentProposedTrx = none)) := by
      intro next events expected same extended even
      refine (hypothesis next expected).mono ?_
      rintro after ⟨⟨executing, more, later, evenLater⟩, left⟩
      refine ⟨⟨executing.trans same, events ++ more, ?_, even.append evenLater⟩, same ▸ left⟩
      rw [later, extended, List.append_assoc]
    rw [Database.applyOperations, each_cons]
    cases triggers : database.store.triggers evaluators operation with
    | none =>
      have noted := Even.of_both here (fun _ _ => triggers)
      rcases applyOperation_settles _ _ triggers with ⟨error, ended⟩ | ⟨store, ended | ended⟩
      · rw [ended]
        exact ⟨⟨rfl, _, rfl, noted⟩, outside⟩
      · rw [ended]
        exact continues _ _ inContext rfl rfl noted
      · rw [ended]
        trivial
    | some current =>
      have contained := applyOperation_contained inner behind triggers
      cases result : database.applyOperation evaluators push behind operation with
      | undefined => trivial
      | unfinished => trivial
      | thrown error failed =>
        obtain ⟨_, proposal, -, -, -, -, -, ended⟩ := applyOperation_triggers _ _ triggers
        exact absurd (ended.symm.trans result) (swallow_not_thrown _ _)
      | returned next =>
        rw [result] at contained
        obtain ⟨⟨same, events, extended, even⟩, none⟩ := contained
        have noted : next.trace = database.trace ++ ([database.event behind operation] ++ events) :=
          extended.trans (List.append_assoc _ _ _)
        by_cases outermost : database.executing = []
        · have closing : Event.Closing evaluators (database.event behind operation) :=
            fun inside => absurd outermost inside
          refine continues next _ ?_ same noted ((Even.of_both here closing).append even)
          rw [Database.InContext, none, show next.executing = database.executing from same, outermost]
          rfl
        · by_cases last : behind = []
          · have closing : Event.Closing evaluators (database.event behind operation) :=
              fun _ more => absurd last more
            subst last
            exact ⟨⟨same, _, noted, (Even.of_both here closing).append even⟩, fun _ => none⟩
          · have inside : next.executing ≠ [] := fun outside => outermost (same ▸ outside)
            obtain ⟨more, later, event, listed, lost⟩ :=
              applyOperations_lost inner inside none last
            have neither : Even evaluators ([database.event behind operation] ++ events ++ more) := by
              refine Even.of_neither (List.mem_append_right _ listed) lost
                (List.mem_append_left _ (List.mem_append_left _ List.mem_cons_self)) ?_
              intro closing
              rw [closing outermost last] at triggers
              cases triggers
            have traced : (next.applyOperations evaluators push behind).Ends
                (fun after => after.trace = next.trace ++ more) := Ends.of_state later
            have nested := (applyOperations_extends evaluators inner.extended behind next).executing
            refine (nested.and traced).mono ?_
            rintro after ⟨executing, later⟩
            refine ⟨⟨executing.trans same, _, ?_, neither⟩, fun outside => absurd outside outermost⟩
            rw [later, noted, List.append_assoc]

/-!
## Executions
-/

theorem failProposal_contained {entered failed : Database Payload Rest} {proposal : Proposal Payload}
    {error : ProposalError} {events : List (Event Payload Rest)}
    (extended : failed.trace = entered.trace ++ events) (even : Even evaluators events) :
    (entered.failProposal failed proposal error).Ends (fun after =>
      Composed evaluators entered after ∧ after.currentProposedTrx = none) := by
  dsimp only [Database.failProposal]
  split
  · trivial
  · exact ⟨⟨rfl, events, extended, even⟩, rfl⟩

theorem finishProposal_contained {entered done : Database Payload Rest} {proposal : Proposal Payload}
    {events : List (Event Payload Rest)} (extended : done.trace = entered.trace ++ events)
    (even : Even evaluators events) :
    (entered.finishProposal done proposal).Ends (fun after =>
      Composed evaluators entered after ∧ after.currentProposedTrx = none) := by
  dsimp only [Database.finishProposal]
  split
  · trivial
  · exact ⟨⟨rfl, events, extended, even⟩, rfl⟩

theorem Even.nil : Even evaluators ([] : List (Event Payload Rest)) := by
  rw [Even]
  simp

/-- An execution of a proposal with inner ones that are contained. -/
theorem executeProposal_contained (inner : Contained evaluators push) :
    Contained evaluators (Database.executeProposal evaluators push) := by
  refine ⟨executeProposal_extends inner.extended, ?_⟩
  intro database proposal
  rw [Database.executeProposal]
  split
  · have ran := applyOperations_composed inner proposal.proposedTransaction.operations
      (database.enter proposal) rfl
    have entered : Even evaluators 
        [Event.execution proposal database.store database.executing] :=
      Even.of_both trivial trivial
    have noted : ∀ after, Composed evaluators (database.enter proposal) after →
        ∃ events, after.trace = database.trace ++ events ∧ Even evaluators events := by
      rintro after ⟨-, events, extended, even⟩
      exact ⟨_, extended.trans (List.append_assoc _ _ _), entered.append even⟩
    dsimp only
    split
    · rename_i done result
      rw [result] at ran
      obtain ⟨events, extended, even⟩ := noted done ran.1
      exact finishProposal_contained extended even
    · rename_i error failed result
      rw [result] at ran
      obtain ⟨events, extended, even⟩ := noted failed ran.1
      exact failProposal_contained extended even
    · trivial
    · trivial
  · exact failProposal_contained (List.append_nil _).symm Even.nil

theorem pushProposal_contained (evaluators : Evaluators Payload Rest) (depth : Nat) :
    Contained evaluators (Database.pushProposal evaluators depth) := by
  induction depth with
  | zero =>
    refine ⟨pushProposal_extends evaluators 0, ?_⟩
    exact fun database proposal => failProposal_contained (List.append_nil _).symm Even.nil
  | succ depth hypothesis => exact executeProposal_contained hypothesis

/-!
## The run of a node
-/

/-- Between calls no proposal is being executed and there is no current proposed
transaction. -/
structure Idle (database : Database Payload Rest) : Prop where
  executing : database.executing = []
  current : database.currentProposedTrx = none

theorem Idle.inContext {database : Database Payload Rest} (idle : Idle database) :
    database.InContext := by
  rw [Database.InContext, idle.current, idle.executing]
  rfl

/-- A call from an idle database to an idle one, and what it has recorded. -/
structure Rested (evaluators : Evaluators Payload Rest) (before after : Database Payload Rest) :
    Prop where
  idle : Idle after
  added : ∃ events, after.trace = before.trace ++ events ∧ Even evaluators events

theorem Rested.refl {database : Database Payload Rest} (idle : Idle database) :
    Rested evaluators database database :=
  ⟨idle, [], (List.append_nil _).symm, Even.nil⟩

theorem Rested.trans {first second third : Database Payload Rest}
    (one : Rested evaluators first second) (other : Rested evaluators second third) :
    Rested evaluators first third := by
  obtain ⟨events, extended, even⟩ := one.added
  obtain ⟨more, later, evenLater⟩ := other.added
  exact ⟨other.idle, events ++ more, by rw [later, extended, List.append_assoc],
    even.append evenLater⟩

/-- A change of the object store and of the reference block of the transaction only. -/
theorem Rested.alter {before after other : Database Payload Rest}
    (rested : Rested evaluators before after) (executing : other.executing = after.executing)
    (current : other.currentProposedTrx = after.currentProposedTrx)
    (trace : other.trace = after.trace) : Rested evaluators before other :=
  ⟨⟨executing.trans rested.idle.executing, current.trans rested.idle.current⟩,
    trace ▸ rested.added⟩

theorem Composed.rested {before after : Database Payload Rest} (idle : Idle before)
    (composed : Composed evaluators before after) (none : after.currentProposedTrx = none) :
    Rested evaluators before after :=
  ⟨⟨composed.executing.trans idle.executing, none⟩, composed.added⟩

theorem clearExpiredProposals_rested (evaluators : Evaluators Payload Rest) (rounds : Nat)
    {database : Database Payload Rest} (idle : Idle database) :
    (database.clearExpiredProposals evaluators rounds).Ends (Rested evaluators database) := by
  induction rounds generalizing database with
  | zero => trivial
  | succ rounds hypothesis =>
    -- The rounds that are left, after one that has ended where another database is.
    have continues : ∀ next : Database Payload Rest, Rested evaluators database next →
        (next.clearExpiredProposals evaluators rounds).Ends (Rested evaluators database) :=
      fun next rested => (hypothesis rested.idle).mono (fun _ later => rested.trans later)
    rw [Database.clearExpiredProposals]
    split
    · exact Rested.refl idle
    · rename_i proposal _
      split
      · split
        · have ran := (pushProposal_contained evaluators maxNesting).composed database proposal
          split
          · rename_i done result
            rw [result] at ran
            exact continues done (ran.1.rested idle ran.2)
          · rename_i error failed result
            rw [result] at ran
            exact continues _ ((ran.1.rested idle ran.2).alter rfl ran.2.symm rfl)
          · trivial
          · trivial
        · exact continues _ ((Rested.refl idle).alter rfl rfl rfl)
      · exact Rested.refl idle

theorem applyTransaction_rested (evaluators : Evaluators Payload Rest)
    {database : Database Payload Rest} (trx : Transaction Payload) (idle : Idle database) :
    (database.applyTransaction evaluators trx).Ends (Rested evaluators database) := by
  have opened : Rested evaluators database { database with currentTrxReference := trx.reference } :=
    (Rested.refl idle).alter rfl rfl rfl
  rw [Database.applyTransaction]
  split
  · exact opened
  · have ran : (Database.applyOperations evaluators (Database.pushProposal evaluators maxNesting)
        { database with currentTrxReference := trx.reference }
        trx.operations).Ends (Rested evaluators database) := by
      refine (applyOperations_composed (pushProposal_contained evaluators maxNesting)
        trx.operations _ opened.idle.inContext).mono ?_
      rintro after ⟨composed, left⟩
      exact opened.trans (composed.rested opened.idle (left opened.idle.executing))
    exact Ends.andThen ran (fun _ rested => rested) (fun done rested => rested.alter rfl rfl rfl)

theorem applyTransactions_rested (evaluators : Evaluators Payload Rest)
    (transactions : List (Transaction Payload)) {database : Database Payload Rest}
    (idle : Idle database) :
    (each (fun _ => Database.applyTransaction evaluators) database transactions).Ends
      (Rested evaluators database) := by
  induction transactions generalizing database with
  | nil => exact Rested.refl idle
  | cons trx behind hypothesis =>
    refine Ends.andThen (applyTransaction_rested evaluators trx idle) (fun _ rested => rested) ?_
    intro next rested
    exact (hypothesis rested.idle).mono (fun _ later => rested.trans later)

theorem applyBlock_rested (evaluators : Evaluators Payload Rest) {database : Database Payload Rest}
    (block : Block Payload) (idle : Idle database) :
    (database.applyBlock evaluators block).Ends (Rested evaluators database) := by
  rw [Database.applyBlock]
  split
  · refine Ends.andThen (applyTransactions_rested evaluators block.transactions idle)
      (fun _ rested => rested) ?_
    intro applied rested
    have advanced : Rested evaluators database
        { applied with store := applied.store.advance evaluators block } :=
      rested.alter rfl rfl rfl
    refine Ends.andThen (clearExpiredProposals_rested evaluators _ advanced.idle)
      (fun _ cleared => advanced.trans cleared) ?_
    intro cleared later
    exact (advanced.trans later).alter rfl rfl rfl
  · exact Rested.refl idle

/-- What a node does to its database: it applies a transaction or a block, and what such a
call has changed in the object store is undone when it throws; or it goes back to another object store when
pending transactions or blocks are undone. -/
inductive Action (Payload Rest : Type) where
  | transaction (trx : Transaction Payload)
  | block (block : Block Payload)
  | undo (store : Store Payload Rest)

def Database.act (evaluators : Evaluators Payload Rest) (database : Database Payload Rest) :
    Action Payload Rest → Result Payload Rest
  | .transaction trx => database.recover (database.applyTransaction evaluators trx)
  | .block block => database.recover (database.applyBlock evaluators block)
  | .undo store => .returned { database with store := store }

/-- The run of a node. -/
def run (evaluators : Evaluators Payload Rest) (database : Database Payload Rest)
    (actions : List (Action Payload Rest)) : Result Payload Rest :=
  each (fun _ => Database.act evaluators) database actions

theorem recover_rested {database : Database Payload Rest} {outcome : Result Payload Rest}
    (ends : outcome.Ends (Rested evaluators database)) :
    (database.recover outcome).Ensures (Rested evaluators database) := by
  cases outcome with
  | returned done => exact ends
  | thrown error failed => exact ends.alter rfl rfl rfl
  | undefined => trivial
  | unfinished => trivial

theorem act_rested (evaluators : Evaluators Payload Rest) {database : Database Payload Rest}
    (action : Action Payload Rest) (idle : Idle database) :
    (database.act evaluators action).Ensures (Rested evaluators database) := by
  cases action with
  | transaction trx => exact recover_rested (applyTransaction_rested evaluators trx idle)
  | block block => exact recover_rested (applyBlock_rested evaluators block idle)
  | undo store => exact (Rested.refl idle).alter rfl rfl rfl

theorem run_rested (evaluators : Evaluators Payload Rest) (actions : List (Action Payload Rest))
    {database : Database Payload Rest} (idle : Idle database) :
    (run evaluators database actions).Ensures (Rested evaluators database) := by
  refine each_ensures ?_ (Rested.refl idle)
  intro _ action next _ rested
  exact (act_rested evaluators action rested.idle).mono (fun _ later => rested.trans later)

/-- In every run every operation is applied in the context of its proposal exactly if no
operation of a proposal follows one that executes another proposal, and between
calls there is no context. -/
theorem run_in_context {time : Nat} {recentEntities : List RecentEntity}
    {entities : List (EntityKind × String)} {rest : Rest} {proposals : List (GenesisProposal Payload)}
    {start final : Database Payload Rest} {actions : List (Action Payload Rest)}
    (began : genesis evaluators time recentEntities entities rest proposals = .ok start)
    (ran : run evaluators start actions = .returned final) :
    ((∀ event ∈ final.trace, event.InContext) ↔
      ∀ event ∈ final.trace, event.Closing evaluators) ∧
    final.executing = [] ∧ final.currentProposedTrx = none := by
  simp only [genesis, Result.bind_ok_iff, Result.pure_ok_iff] at began
  obtain ⟨store, -, rfl⟩ := began
  have rested := ensures_iff.mp (run_rested evaluators actions ⟨rfl, rfl⟩) final ran
  obtain ⟨events, extended, even⟩ := rested.added
  refine ⟨?_, rested.idle.executing, rested.idle.current⟩
  rw [extended]
  exact even

namespace Sample

/-- Every operation needs Alice, and a proposal is authorized by the accounts it requires. -/
def council : Evaluators Unit Unit where
  validate _ := .ok ⟨⟩
  entityHash _ _ := "hash"
  requiredActive _ := {"alice"}
  requiredOwner _ := ∅
  requiresOther _ := false
  apply _ _ _ := .ok ()
  isAuthorizedToExecute _ proposal :=
    decide (proposal.requiredActiveApprovals ⊆ proposal.availableActiveApprovals) &&
      decide (proposal.requiredOwnerApprovals ⊆ proposal.availableOwnerApprovals)
  activeWitnesses _ := 1
  activeWitnesses_le _ := by decide
  beginBlock _ rest := rest
  finishBlock _ rest := rest

/-- An update by which Alice approves a proposal. -/
def approval (externalId : String) : Operation Unit :=
  .updateProposal
    { externalId := externalId
      activeApprovalsToAdd := {"alice"}
      activeApprovalsToRemove := ∅
      ownerApprovalsToAdd := ∅
      ownerApprovalsToRemove := ∅
      keyApprovalsToAdd := ∅
      keyApprovalsToRemove := ∅ }

/-- A proposal of the genesis state that Alice may have approved. -/
def proposal (externalId : String) (approvals : Finset String) (operations : List (Operation Unit)) :
    GenesisProposal Unit :=
  { externalId := externalId
    proposer := "alice"
    reviewPeriodSeconds := none
    expirationTime := 10
    activeApprovals := approvals
    ownerApprovals := ∅
    keyApprovals := ∅
    proposedTransaction :=
      { reference := ⟨7, 7⟩, expiration := 10, operations := operations } }

/-- The first one approves the second and creates a research. -/
def nested : List (GenesisProposal Unit) :=
  [proposal "first" {"alice"} [approval "second", .createEntity .research "research" ()],
   proposal "second" ∅ [.other ()]]

/-- It does so when it expires. -/
def expiry : List (Action Unit Unit) :=
  [.block { timestamp := 12, idPrefix := 1, transactions := [] }]

/-- Whether an operation of a proposal is applied without a current proposed transaction. -/
def lost : Event Unit Unit → Bool
  | .operation _ _ _ executing currentProposedTrx _ =>
    !executing.isEmpty && currentProposedTrx.isNone
  | .execution _ _ _ => false

theorem not_inContext_of_lost {event : Event Unit Unit} (isLost : lost event = true) :
    ¬event.InContext := by
  cases event with
  | execution => cases isLost
  | operation op behind store executing current reference =>
    intro situated
    have own := situated.own
    cases executing with
    | nil => cases isLost
    | cons first rest =>
      subst own
      cases isLost

/-- The operation after the inner execution finds no proposed transaction, and the research
is recorded with another reference block than that of its proposal. -/
theorem nested_out_of_context :
    ∃ start final, genesis council 0 [] [] () nested = .ok start ∧
      run council start expiry = .returned final ∧ (¬∀ event ∈ final.trace, event.InContext) ∧
      ∃ entity ∈ final.store.recentEntities,
        entity.externalId = "research" ∧ entity.reference = ⟨0, 0⟩ := by
  obtain ⟨start, began, works⟩ := Result.exists_ok_of_any (genesis council 0 [] [] () nested)
    (fun start => (run council start expiry).returnsWith (fun final =>
      final.trace.any lost && final.store.recentEntities.any (fun entity =>
        decide (entity.externalId = "research" ∧ entity.reference = ⟨0, 0⟩)))) (by decide +kernel)
  obtain ⟨final, ran, tested⟩ := exists_returned works
  rw [Bool.and_eq_true, List.any_eq_true, List.any_eq_true] at tested
  obtain ⟨⟨event, listed, isLost⟩, entity, recorded, matching⟩ := tested
  refine ⟨start, final, began, ran, ?_, entity, recorded, of_decide_eq_true matching⟩
  exact fun all => not_inContext_of_lost isLost (all event listed)

/-- The second one is approved last. -/
def closing : List (GenesisProposal Unit) :=
  [proposal "first" {"alice"} [.createEntity .research "research" (), approval "second"],
   proposal "second" ∅ [.other ()]]

theorem closing_in_context :
    ∃ start final, genesis council 0 [] [] () closing = .ok start ∧
      run council start expiry = .returned final ∧ final.trace.length = 5 ∧
      ((∀ event ∈ final.trace, event.InContext) ↔
        ∀ event ∈ final.trace, event.Closing council) ∧
      final.executing = [] ∧ final.currentProposedTrx = none := by
  obtain ⟨start, began, works⟩ := Result.exists_ok_of_any (genesis council 0 [] [] () closing)
    (fun start => (run council start expiry).returnsWith (fun final => final.trace.length == 5))
    (by decide +kernel)
  obtain ⟨final, ran, tested⟩ := exists_returned works
  exact ⟨start, final, began, ran, by simpa using tested, run_in_context began ran⟩

end Sample

end DeipChain.Proposals
