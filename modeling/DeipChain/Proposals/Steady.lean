import DeipChain.Proposals.Chains

/-!
# Proposals that stay where they are

An execution holds a reference to its proposal until it ends. The reference is lost when
an operation of it, or of an inner execution, removes the proposal, and its operations are lost when an inner
session puts the proposal back. Neither happens if no operation deletes a proposal that is
being executed, executes it again, or changes one of the outer ones. Then every execution
returns or throws.
-/
namespace DeipChain.Proposals

open Outcome

variable {Payload Rest : Type} {evaluators : Evaluators Payload Rest} {push : Push Payload Rest}

/-- An operation leaves the proposals that are being executed alone. It may change the
approvals of the innermost one, if that does not execute it again. -/
def Operation.LeavesAlone (evaluators : Evaluators Payload Rest) (store : Store Payload Rest)
    (executing : List (Proposal Payload)) : Operation Payload → Prop
  | .updateProposal update =>
    (∀ proposal ∈ executing.tail, proposal.externalId ≠ update.externalId) ∧
    ∀ proposal ∈ executing, proposal.externalId = update.externalId →
      (store.triggers evaluators (.updateProposal update)).isNone
  | .deleteProposal externalId _ _ => ∀ proposal ∈ executing, proposal.externalId ≠ externalId
  | _ => True

instance (evaluators : Evaluators Payload Rest) (store : Store Payload Rest)
    (executing : List (Proposal Payload)) :
    (operation : Operation Payload) → Decidable (operation.LeavesAlone evaluators store executing)
  | .createProposal _ _ _ _ _ => inferInstanceAs (Decidable True)
  | .updateProposal _ => inferInstanceAs (Decidable (_ ∧ _))
  | .deleteProposal _ _ _ => inferInstanceAs (Decidable (∀ _ ∈ _, _))
  | .createEntity _ _ _ => inferInstanceAs (Decidable True)
  | .other _ => inferInstanceAs (Decidable True)

/-- An operation that is applied leaves the proposals that are being executed alone. -/
def Event.Apart (evaluators : Evaluators Payload Rest) : Event Payload Rest → Prop
  | .operation op _ store executing _ _ => op.LeavesAlone evaluators store executing
  | .execution _ _ _ => True

instance (evaluators : Evaluators Payload Rest) :
    (event : Event Payload Rest) → Decidable (event.Apart evaluators)
  | .operation op _ store executing _ _ =>
    inferInstanceAs (Decidable (op.LeavesAlone evaluators store executing))
  | .execution _ _ _ => inferInstanceAs (Decidable True)

/-- The record of a call up to its end. -/
def Quiet (evaluators : Evaluators Payload Rest) (outcome : Result Payload Rest) : Prop :=
  ∀ event ∈ outcome.state.trace, event.Apart evaluators

theorem Quiet.of_prefix {outcome : Result Payload Rest} {database : Database Payload Rest}
    (quiet : Quiet evaluators outcome) (before : database.trace <+: outcome.state.trace) :
    ∀ event ∈ database.trace, event.Apart evaluators :=
  fun event listed => quiet event (before.subset listed)

/-- What comes after a part of a call, if it keeps the record. -/
theorem Quiet.closed {outcome : Result Payload Rest}
    {next : Database Payload Rest → Result Payload Rest}
    (quiet : Quiet evaluators (outcome.andThen next))
    (same : ∀ state, (next state).state.trace = state.trace) : Quiet evaluators outcome := by
  cases outcome with
  | returned state => exact fun event listed => quiet event ((same state).symm ▸ listed)
  | thrown => exact quiet
  | undefined => exact quiet
  | unfinished => exact quiet

/-- What comes after a part of a call only adds to the record. -/
theorem Quiet.first {outcome : Result Payload Rest}
    {next : Database Payload Rest → Result Payload Rest}
    (extends_ : ∀ state, Extends state (next state)) (quiet : Quiet evaluators (outcome.andThen next)) :
    Quiet evaluators outcome := by
  cases outcome with
  | returned state => exact quiet.of_prefix (extends_ state).trace
  | thrown => exact quiet
  | undefined => exact quiet
  | unfinished => exact quiet

/-- The proposals with these ids are in both stores, as they were. -/
def Unmoved (ids : List Nat) (before after : Store Payload Rest) : Prop :=
  ∀ id ∈ ids, after.proposals.find? (fun proposal => proposal.id == id) =
    before.proposals.find? (fun proposal => proposal.id == id)

section Unmoved

variable {ids : List Nat} {before after last : Store Payload Rest}

theorem Unmoved.of_eq (same : after.proposals = before.proposals) : Unmoved ids before after :=
  fun _ _ => by rw [same]

theorem Unmoved.trans (one : Unmoved ids before after) (other : Unmoved ids after last) :
    Unmoved ids before last :=
  fun id member => (other id member).trans (one id member)

theorem Unmoved.modify {id : Nat} (change : Proposal Payload → Proposal Payload)
    (same : ∀ proposal, (change proposal).id = proposal.id) (apart : id ∉ ids) :
    Unmoved ids before (before.modifyProposal id change) := by
  intro other member
  have kept : ∀ proposal : Proposal Payload,
      ({ change proposal with revision := proposal.revision + 1 } : Proposal Payload).id = proposal.id :=
    same
  refine Table.find?_modifyFirst_ne ?_ kept before.proposals
  rintro rfl
  exact apart member

theorem Unmoved.remove {id : Nat} (apart : id ∉ ids) :
    Unmoved ids before (before.removeProposal id) := by
  intro other member
  refine Table.find?_eraseP_ne ?_ before.proposals
  rintro rfl
  exact apart member

theorem Unmoved.append {proposal : Proposal Payload}
    (known : ∀ id ∈ ids, ∃ row ∈ before.proposals, row.id = id)
    (created : after.proposals = before.proposals ++ [proposal]) : Unmoved ids before after := by
  intro id member
  obtain ⟨row, listed, same⟩ := known id member
  have found : (before.proposals.find? (fun proposal => proposal.id == id)).isSome := by
    rw [List.find?_isSome]
    exact ⟨row, listed, by simpa using same⟩
  obtain ⟨first, here⟩ := Option.isSome_iff_exists.mp found
  rw [created, List.find?_append, here]
  rfl

theorem Unmoved.untouched (unmoved : Unmoved ids before after) : ids.any (before.touched after) = false := by
  rw [List.any_eq_false]
  intro id member
  simp [Store.touched, unmoved id member]

end Unmoved

section Sound

variable {database : Database Payload Rest}

/-- A proposal under another name than those that are being executed is none of them. -/
theorem Sound.outside (sound : Sound database) {some_ : List (Proposal Payload)}
    (among : ∀ proposal ∈ some_, proposal ∈ database.executing) {proposal : Proposal Payload}
    (listed : proposal ∈ database.store.proposals)
    (other : ∀ executed ∈ some_, executed.externalId ≠ proposal.externalId) :
    proposal.id ∉ some_.map Proposal.id := by
  intro member
  obtain ⟨executed, inside, same⟩ := List.mem_map.mp member
  obtain ⟨row, present, sameId, sameName⟩ := sound.held executed (among executed inside)
  have one : row = proposal :=
    List.inj_on_of_nodup_map sound.ids present listed (sameId.trans same)
  exact other executed inside (sameName.symm.trans (one ▸ rfl))

theorem Sound.known (sound : Sound database) {some_ : List (Proposal Payload)}
    (among : ∀ proposal ∈ some_, proposal ∈ database.executing) :
    ∀ id ∈ some_.map Proposal.id, ∃ row ∈ database.store.proposals, row.id = id := by
  intro id member
  obtain ⟨executed, inside, rfl⟩ := List.mem_map.mp member
  obtain ⟨row, present, sameId, -⟩ := sound.held executed (among executed inside)
  exact ⟨row, present, sameId⟩

end Sound

/-!
## Operations
-/

section Operations

variable {behind : List (Operation Payload)} {operation : Operation Payload}
  {database : Database Payload Rest}

/-- The only operation that can leave a reference behind deletes a proposal that is being
executed. -/
theorem applyOperation_undefined {next : Database Payload Rest}
    (settles : database.store.triggers evaluators operation = none)
    (ran : database.applyOperation evaluators push behind operation = .undefined next) :
    ∃ externalId account authority proposal, operation = .deleteProposal externalId account authority ∧
      database.store.checkDelete externalId account authority = .ok proposal ∧
      proposal.id ∈ database.executing.map Proposal.id := by
  have settle : ∀ (noted : Database Payload Rest) result, noted.settle result ≠ .undefined next := by
    intro noted result ended
    cases result <;> cases ended
  cases operation with
  | createProposal => exact absurd ran (settle _ _)
  | createEntity => exact absurd ran (settle _ _)
  | other => exact absurd ran (settle _ _)
  | deleteProposal externalId account authority =>
    simp only [Database.applyOperation, Database.deleteProposal] at ran
    split at ran
    · cases ran
    · rename_i proposal checked
      split at ran
      · rename_i busy
        exact ⟨externalId, account, authority, proposal, rfl, checked, busy⟩
      · cases ran
  | updateProposal update =>
    rcases updateProposal_settles (database.note behind (.updateProposal update)) settles with
      ⟨error, thrown⟩ | ⟨proposal, checked, returned⟩
    · cases thrown.symm.trans ran
    · cases returned.symm.trans ran

/-- What an operation that executes nothing does to the outer proposals. -/
theorem Settled.unmoved {store : Store Payload Rest} (sound : Sound database)
    (alone : operation.LeavesAlone evaluators database.store database.executing)
    (settled : Settled evaluators database operation store) :
    Unmoved (database.executing.tail.map Proposal.id) database.store store := by
  have tail : ∀ proposal ∈ database.executing.tail, proposal ∈ database.executing :=
    fun proposal => List.mem_of_mem_tail
  cases settled with
  | created ran =>
    obtain ⟨-, -, -, proposal, -, -, -, rfl⟩ := createProposal_ok ran
    exact Unmoved.append (sound.known tail) rfl
  | @updated update proposal checked =>
    obtain ⟨listed, name, -⟩ := checkUpdate_ok checked
    refine Unmoved.modify (Proposal.approve update) (fun _ => rfl) ?_
    exact sound.outside tail listed (fun executed inside => name ▸ alone.1 executed inside)
  | deleted checked idle =>
    apply Unmoved.remove
    intro member
    exact idle (List.map_subset Proposal.id tail member)
  | entity ran =>
    obtain ⟨-, -, rest, rfl⟩ := createEntity_ok ran
    exact Unmoved.of_eq rfl
  | other rest => exact Unmoved.of_eq rfl

/-- No proposal that is being executed is executed again. -/
theorem Sound.not_again {update : ProposalUpdate} {proposal current : Proposal Payload}
    (sound : Sound database)
    (alone : (Operation.updateProposal update).LeavesAlone evaluators database.store database.executing)
    (triggers : database.store.triggers evaluators (.updateProposal update) = some current)
    (checked : database.store.checkUpdate update = .ok proposal) :
    proposal.id ∉ database.executing.map Proposal.id := by
  obtain ⟨listed, name, -⟩ := checkUpdate_ok checked
  refine sound.outside (fun _ inside => inside) listed ?_
  intro executed inside sameName
  have nothing := alone.2 executed inside (sameName.trans name)
  rw [triggers] at nothing
  cases nothing

/-- What is known of the executions that an operation can make. -/
structure Steady (evaluators : Evaluators Payload Rest) (push : Push Payload Rest) : Prop where
  extended : ∀ database proposal, Extends database (push database proposal)
  sound : ∀ database proposal, Sound database → database.store.Lists proposal →
    (push database proposal).Ends Sound
  concludes : ∀ database proposal, Sound database → database.store.Lists proposal →
    proposal.id ∉ database.executing.map Proposal.id → Quiet evaluators (push database proposal) →
      (push database proposal).Concludes
        (fun after => Unmoved (database.executing.map Proposal.id) database.store after.store)

theorem applyOperation_concludes (inner : Steady evaluators push) (sound : Sound database)
    (quiet : Quiet evaluators (database.applyOperation evaluators push behind operation)) :
    (database.applyOperation evaluators push behind operation).Concludes (fun after =>
      Unmoved (database.executing.tail.map Proposal.id) database.store after.store) := by
  have noted : database.event behind operation ∈
      (database.applyOperation evaluators push behind operation).state.trace :=
    (applyOperation_extends inner.extended behind database operation).trace.subset
      (List.mem_append_right _ List.mem_cons_self)
  have alone : operation.LeavesAlone evaluators database.store database.executing := quiet _ noted
  cases triggers : database.store.triggers evaluators operation with
  | none =>
    cases result : database.applyOperation evaluators push behind operation with
    | returned next =>
      obtain ⟨store, rfl, settled⟩ := applyOperation_settled triggers result
      exact settled.unmoved sound alone
    | thrown error failed =>
      rcases applyOperation_settles push behind triggers with
        ⟨_, ended⟩ | ⟨_, ended | ended⟩
      · cases ended.symm.trans result
        exact Unmoved.of_eq rfl
      · cases ended.symm.trans result
      · cases ended.symm.trans result
    | undefined next =>
      obtain ⟨externalId, account, authority, proposal, rfl, checked, busy⟩ :=
        applyOperation_undefined triggers result
      obtain ⟨listed, name⟩ := checkDelete_ok checked
      exact absurd busy (sound.outside (fun _ inside => inside) listed
        (fun executed inside => name ▸ alone executed inside))
    | unfinished next =>
      rcases applyOperation_settles push behind triggers with
        ⟨_, ended⟩ | ⟨_, ended | ended⟩
      · cases ended.symm.trans result
      · cases ended.symm.trans result
      · cases ended.symm.trans result
  | some current =>
    obtain ⟨update, proposal, rfl, checked, same, unreviewed, -, ended⟩ :=
      applyOperation_triggers push behind triggers
    obtain ⟨updated, fit⟩ := (sound_carried evaluators).update behind update proposal database sound
      checked unreviewed (same ▸ triggers)
    have outside := sound.not_again alone triggers checked
    have apart : proposal.id ∉ database.executing.tail.map Proposal.id :=
      fun member => outside (List.map_subset Proposal.id (fun _ => List.mem_of_mem_tail) member)
    have started : Unmoved (database.executing.tail.map Proposal.id) database.store
        (database.store.modifyProposal proposal.id (Proposal.approve update)) :=
      Unmoved.modify _ (fun _ => rfl) apart
    rw [ended] at quiet ⊢
    subst same
    have ran := inner.concludes _ (proposal.updated update) updated fit outside
    cases outcome : push { database.note behind (.updateProposal update) with
        store := database.store.modifyProposal proposal.id (Proposal.approve update) }
        (proposal.updated update) with
    | returned done =>
      rw [outcome] at quiet ran
      refine started.trans ?_
      exact fun id member => ran quiet id
        (List.map_subset Proposal.id (fun _ => List.mem_of_mem_tail) member)
    | thrown error failed =>
      rw [outcome] at quiet ran
      refine (started.trans ?_).trans (Unmoved.modify _ (fun _ => rfl) apart)
      exact fun id member => ran quiet id
        (List.map_subset Proposal.id (fun _ => List.mem_of_mem_tail) member)
    | undefined =>
      rw [outcome] at quiet ran
      exact (ran quiet).elim
    | unfinished =>
      rw [outcome] at quiet ran
      exact (ran quiet).elim

/-- The operations of a proposal or a transaction, one after the other. -/
theorem applyOperations_concludes (inner : Steady evaluators push)
    (operations : List (Operation Payload)) {database : Database Payload Rest} (sound : Sound database)
    (quiet : Quiet evaluators (database.applyOperations evaluators push operations)) :
    (database.applyOperations evaluators push operations).Concludes (fun after =>
      Unmoved (database.executing.tail.map Proposal.id) database.store after.store) := by
  induction operations generalizing database with
  | nil => exact Unmoved.of_eq rfl
  | cons operation behind hypothesis =>
    have first : Quiet evaluators (database.applyOperation evaluators push behind operation) :=
      Quiet.first (applyOperations_extends evaluators inner.extended behind) quiet
    have applied := applyOperation_concludes inner sound first
    have nested : Extends (database.note behind operation)
        (database.applyOperation evaluators push behind operation) :=
      applyOperation_extends inner.extended behind database operation
    have still := (sound_carried evaluators).operation inner.sound behind operation sound
    refine Concludes.andThen ((applied.and nested.executing).and still) (fun _ held => held.1.1) ?_
    rintro next result ⟨⟨unmoved, executing⟩, soundNext⟩
    have later : Quiet evaluators (next.applyOperations evaluators push behind) := by
      have all := quiet
      rw [Database.applyOperations, each_cons, result] at all
      exact all
    refine (hypothesis soundNext later).mono ?_
    intro after rest
    rw [show next.executing = database.executing from executing] at rest
    exact unmoved.trans rest

end Operations

/-!
## Executions
-/

theorem failProposal_concludes {entered failed : Database Payload Rest} {proposal : Proposal Payload}
    (error : ProposalError) (outside : proposal.id ∉ entered.executing.map Proposal.id)
    (unmoved : Unmoved (entered.executing.map Proposal.id) entered.store failed.store) :
    (entered.failProposal failed proposal error).Concludes (fun after =>
      Unmoved (entered.executing.map Proposal.id) entered.store after.store) := by
  dsimp only [Database.failProposal]
  rw [if_neg (by rw [unmoved.untouched]; exact Bool.false_ne_true)]
  exact Unmoved.modify _ (fun _ => rfl) outside

theorem executeProposal_steady (inner : Steady evaluators push) :
    Steady evaluators (Database.executeProposal evaluators push) := by
  have sound := (sound_carried evaluators).executed inner.extended inner.sound
  refine ⟨executeProposal_extends inner.extended, sound, ?_⟩
  intro database proposal soundHere listed outside quiet
  rw [Database.executeProposal] at quiet ⊢
  split
  · rename_i within
    rw [if_pos within] at quiet
    have entered := (sound_carried evaluators).enter proposal database soundHere listed
    have ran := applyOperations_concludes inner proposal.proposedTransaction.operations entered
    dsimp only at quiet ⊢
    split
    · rename_i done result
      rw [result] at quiet ran
      dsimp only [Database.finishProposal] at quiet ⊢
      rw [if_neg outside] at quiet ⊢
      exact (ran quiet).trans (Unmoved.remove outside)
    · rename_i error failed result
      rw [result] at quiet ran
      refine failProposal_concludes error outside (ran ?_)
      dsimp only [Database.failProposal] at quiet
      split at quiet
      · exact quiet
      · exact quiet
    · rename_i failed result
      rw [result] at quiet ran
      exact (ran quiet).elim
    · rename_i failed result
      rw [result] at quiet ran
      exact (ran quiet).elim
  · exact failProposal_concludes .nestingDepth outside (Unmoved.of_eq rfl)

/-- Every execution with a quiet record returns or throws, and leaves the proposals that are being
executed where they are. -/
theorem pushProposal_steady (evaluators : Evaluators Payload Rest) (depth : Nat) :
    Steady evaluators (Database.pushProposal evaluators depth) := by
  induction depth with
  | zero =>
    refine ⟨pushProposal_extends evaluators 0, (sound_carried evaluators).pushed 0, ?_⟩
    intro database proposal _ _ outside _
    exact failProposal_concludes .nestingDepth outside (Unmoved.of_eq rfl)
  | succ depth hypothesis => exact executeProposal_steady hypothesis

end DeipChain.Proposals
